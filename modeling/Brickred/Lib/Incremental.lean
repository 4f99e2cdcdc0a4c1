import Mathlib.Algebra.GroupWithZero.Nat
import Mathlib.Data.List.Basic

/-!
# Reading a stream in pieces

A reader looks at the input it has and waits for more, takes some of it and goes
on in another state, or halts. Fed piece by piece it sees only prefixes of the
stream. If more input never changes what it does (`Stable`), all that comes out is
the same for every way of cutting the stream: feeding the pieces is one run on
the whole of it.

`Stable` is relative to an invariant of the reader's states, so that a reader
that is stable only from the states it can be in is covered.
-/

namespace Incremental

/-- What a reader does with the input it has. -/
inductive Action (α σ ω ε : Type) where
  | wait
  | next (s : σ) (rest : List α) (out : List ω)
  | halt (e : ε) (s : σ) (out : List ω)

/-- How a run ends: waiting, with the input left, or halted. -/
inductive Outcome (α σ ε : Type) where
  | waiting (s : σ) (rest : List α)
  | halted (e : ε) (s : σ)

variable {α σ ω ε : Type}

/-- The state and the input left of a reader that waits. -/
def Outcome.waiting? : Outcome α σ ε → Option (σ × List α)
  | .waiting s rest => some (s, rest)
  | .halted _ _ => none

section Runs

variable (step : σ → List α → Action α σ ω ε)

/-- A run on the input at hand, until the reader waits or halts. -/
inductive Runs : σ → List α → List ω → Outcome α σ ε → Prop where
  | wait {s b} : step s b = .wait → Runs s b [] (.waiting s b)
  | halt {s b e s' out} : step s b = .halt e s' out → Runs s b out (.halted e s')
  | next {s b s' rest out outs r} : step s b = .next s' rest out → Runs s' rest outs r →
      Runs s b (out ++ outs) r

/-- Rounds that go on. -/
inductive Steps : σ → List α → σ → List α → List ω → Prop where
  | refl {s b} : Steps s b s b []
  | next {s b s₁ b₁ s₂ b₂ out outs} : step s b = .next s₁ b₁ out → Steps s₁ b₁ s₂ b₂ outs →
      Steps s b s₂ b₂ (out ++ outs)

/-- Feeding the pieces of a stream: each is appended to the input left and the
reader runs on it; nothing is read after it has halted. -/
inductive Feeds : σ → List α → List (List α) → List ω → Outcome α σ ε → Prop where
  | nil {s b} : Feeds s b [] [] (.waiting s b)
  | cons {s b p ps s' rest out outs r} : Runs step s (b ++ p) out (.waiting s' rest) →
      Feeds s' rest ps outs r → Feeds s b (p :: ps) (out ++ outs) r
  | halt {s b p ps out e s'} : Runs step s (b ++ p) out (.halted e s') →
      Feeds s b (p :: ps) out (.halted e s')

/-- More input does not change what the reader does from a state in `I`, and `I`
is kept. -/
structure Stable (I : σ → Prop) : Prop where
  halt : ∀ {s b x e s' out}, I s → step s b = .halt e s' out → step s (b ++ x) = .halt e s' out
  next : ∀ {s b x s' rest out}, I s → step s b = .next s' rest out →
    step s (b ++ x) = .next s' (rest ++ x) out
  keep : ∀ {s b s' rest out}, I s → step s b = .next s' rest out → I s'

end Runs

/-- What a reader does with some input and then with `x` more, if more input does
not change it. -/
inductive Action.Persists (x : List α) : Action α σ ω ε → Action α σ ω ε → Prop where
  | wait {a} : Persists x .wait a
  | next {s rest out} : Persists x (.next s rest out) (.next s (rest ++ x) out)
  | halt {e s out} : Persists x (.halt e s out) (.halt e s out)

variable {step : σ → List α → Action α σ ω ε} {I : σ → Prop} {s s' : σ} {b x rest : List α}
  {out outs out₁ out₂ : List ω} {r r₁ r₂ : Outcome α σ ε} {e : ε} {ps qs : List (List α)}

theorem Stable.of_persists
    (hpersists : ∀ s b x, I s → (step s b).Persists x (step s (b ++ x)))
    (hkeep : ∀ {s b s' rest out}, I s → step s b = .next s' rest out → I s') :
    Stable step I where
  halt hI e := by
    rename_i s b x _ _ _
    have h := hpersists s b x hI
    rw [e] at h
    generalize step s (b ++ x) = a at h
    cases h
    rfl
  next hI e := by
    rename_i s b x _ _ _
    have h := hpersists s b x hI
    rw [e] at h
    generalize step s (b ++ x) = a at h
    cases h
    rfl
  keep := hkeep

/-- A reader runs in one way only. -/
theorem Runs.unique (h₁ : Runs step s b out₁ r₁) (h₂ : Runs step s b out₂ r₂) :
    out₁ = out₂ ∧ r₁ = r₂ := by
  induction h₁ generalizing out₂ r₂ with
  | wait e₁ =>
    cases h₂ with
    | wait => exact ⟨rfl, rfl⟩
    | halt e₂ => cases e₁.symm.trans e₂
    | next e₂ => cases e₁.symm.trans e₂
  | halt e₁ =>
    cases h₂ with
    | wait e₂ => cases e₁.symm.trans e₂
    | halt e₂ =>
      cases e₁.symm.trans e₂
      exact ⟨rfl, rfl⟩
    | next e₂ => cases e₁.symm.trans e₂
  | next e₁ _ ih =>
    cases h₂ with
    | wait e₂ => cases e₁.symm.trans e₂
    | halt e₂ => cases e₁.symm.trans e₂
    | next e₂ hrest =>
      cases e₁.symm.trans e₂
      obtain ⟨rfl, rfl⟩ := ih hrest
      exact ⟨rfl, rfl⟩

/-- The invariant holds where a run waits. -/
theorem Runs.keep (hs : Stable step I) (hI : I s) (h : Runs step s b out (.waiting s' rest)) :
    I s' := by
  generalize hr : Outcome.waiting s' rest = r at h
  induction h with
  | wait =>
    cases hr
    exact hI
  | halt => cases hr
  | next e _ ih => exact ih (hs.keep hI e) hr

/-- A run that halts does the same with more input. -/
theorem Runs.append_halted (hs : Stable step I) (hI : I s) (h : Runs step s b out (.halted e s'))
    (x : List α) : Runs step s (b ++ x) out (.halted e s') := by
  generalize hr : Outcome.halted e s' = r at h
  induction h with
  | wait => cases hr
  | halt e₁ =>
    cases hr
    exact .halt (hs.halt hI e₁)
  | next e₁ _ ih => exact .next (hs.next hI e₁) (ih (hs.keep hI e₁) hr)

/-- A run that waits and goes on with more input is one run. -/
theorem Runs.append (hs : Stable step I) (hI : I s)
    (h₁ : Runs step s b out₁ (.waiting s' rest)) (h₂ : Runs step s' (rest ++ x) out₂ r) :
    Runs step s (b ++ x) (out₁ ++ out₂) r := by
  generalize hr : Outcome.waiting s' rest = r₁ at h₁
  induction h₁ with
  | wait =>
    cases hr
    exact h₂
  | halt => cases hr
  | next e _ ih =>
    rw [List.append_assoc]
    exact .next (hs.next hI e) (ih (hs.keep hI e) hr)

/-- Feeding pieces to a reader that waits is a run on their concatenation. -/
theorem Feeds.runs (hs : Stable step I) (hI : I s) (hwait : step s b = .wait)
    (h : Feeds step s b ps out r) : Runs step s (b ++ ps.flatten) out r := by
  have hwaits : ∀ {s b out s' rest}, Runs step s b out (.waiting s' rest) →
      step s' rest = .wait := by
    intro s b out s' rest h
    generalize hr : Outcome.waiting s' rest = r at h
    induction h with
    | wait e =>
      cases hr
      exact e
    | halt => cases hr
    | next _ _ ih => exact ih hr
  induction h with
  | nil =>
    rw [List.flatten_nil, List.append_nil]
    exact .wait hwait
  | cons hrun _ ih =>
    rw [List.flatten_cons, ← List.append_assoc]
    exact hrun.append hs hI (ih (hrun.keep hs hI) (hwaits hrun))
  | halt hrun =>
    rw [List.flatten_cons, ← List.append_assoc]
    exact hrun.append_halted hs hI _

/-- What comes out does not depend on how the stream is cut. -/
theorem Feeds.unique (hs : Stable step I) (hI : I s) (hwait : step s b = .wait)
    (hcut : ps.flatten = qs.flatten) (h₁ : Feeds step s b ps out₁ r₁)
    (h₂ : Feeds step s b qs out₂ r₂) : out₁ = out₂ ∧ r₁ = r₂ := by
  have hrun := h₁.runs hs hI hwait
  rw [hcut] at hrun
  exact hrun.unique (h₂.runs hs hI hwait)

theorem Steps.trans {s₁ s₂ : σ} {b₁ b₂ : List α} (h₁ : Steps step s b s₁ b₁ out₁)
    (h₂ : Steps step s₁ b₁ s₂ b₂ out₂) : Steps step s b s₂ b₂ (out₁ ++ out₂) := by
  induction h₁ with
  | refl => exact h₂
  | next e _ ih =>
    rw [List.append_assoc]
    exact .next e (ih h₂)

theorem Steps.runs (h : Steps step s b s' rest out) (hr : Runs step s' rest outs r) :
    Runs step s b (out ++ outs) r := by
  induction h with
  | refl => exact hr
  | next e _ ih =>
    rw [List.append_assoc]
    exact .next e (ih hr)

/-- What comes out of a part of the input comes out of all of it first. -/
theorem Runs.isPrefix (hs : Stable step I) (hI : I s) (h₁ : Runs step s b out₁ r₁)
    (h₂ : Runs step s (b ++ x) out₂ r₂) : out₁ <+: out₂ := by
  induction h₁ generalizing out₂ with
  | wait => exact List.nil_prefix
  | halt e₁ =>
    obtain ⟨rfl, -⟩ := h₂.unique (.halt (hs.halt hI e₁))
    exact List.prefix_refl _
  | next e₁ _ ih =>
    have e := hs.next (x := x) hI e₁
    cases h₂ with
    | wait e₂ => cases e.symm.trans e₂
    | halt e₂ => cases e.symm.trans e₂
    | next e₂ hrest =>
      cases e.symm.trans e₂
      exact (List.prefix_append_right_inj _).mpr (ih (hs.keep hI e₁) hrest)

/-- Rounds are the same with more input behind. -/
theorem Steps.append (hs : Stable step I) (hI : I s) (h : Steps step s b s' rest out)
    (x : List α) : Steps step s (b ++ x) s' (rest ++ x) out := by
  induction h with
  | refl => exact .refl
  | next e _ ih => exact .next (hs.next hI e) (ih (hs.keep hI e))

theorem Steps.one (h : step s b = .next s' rest out) : Steps step s b s' rest out := by
  have hone : Steps step s b s' rest (out ++ []) := .next h .refl
  rwa [List.append_nil] at hone

/-- A run that waits is a run of rounds up to there. -/
theorem Runs.steps (h : Runs step s b out (.waiting s' rest)) :
    Steps step s b s' rest out ∧ step s' rest = .wait := by
  generalize hr : Outcome.waiting s' rest = r at h
  induction h with
  | wait e =>
    cases hr
    exact ⟨.refl, e⟩
  | halt => cases hr
  | next e _ ih =>
    obtain ⟨hsteps, hwait⟩ := ih hr
    exact ⟨.next e hsteps, hwait⟩

/-- A run that halts is a run of rounds up to there. -/
theorem Runs.steps_halt (h : Runs step s b out (.halted e s')) :
    ∃ s₁ b₁ out₁ out₂, Steps step s b s₁ b₁ out₁ ∧ step s₁ b₁ = .halt e s' out₂ ∧
      out = out₁ ++ out₂ := by
  generalize hr : Outcome.halted e s' = r at h
  induction h with
  | wait => cases hr
  | halt e₁ =>
    cases hr
    exact ⟨_, _, [], _, .refl, e₁, rfl⟩
  | next e₁ _ ih =>
    obtain ⟨s₁, b₁, out₁, out₂, hsteps, hhalt, rfl⟩ := ih hr
    exact ⟨s₁, b₁, _, out₂, .next e₁ hsteps, hhalt, (List.append_assoc ..).symm⟩

/-- Feeding is deterministic. -/
theorem Feeds.deterministic (h₁ : Feeds step s b ps out₁ r₁) (h₂ : Feeds step s b ps out₂ r₂) :
    out₁ = out₂ ∧ r₁ = r₂ := by
  induction h₁ generalizing out₂ r₂ with
  | nil =>
    cases h₂
    exact ⟨rfl, rfl⟩
  | cons hrun _ ih =>
    cases h₂ with
    | cons hrun' hrest' =>
      obtain ⟨rfl, hr⟩ := hrun.unique hrun'
      cases hr
      obtain ⟨rfl, rfl⟩ := ih hrest'
      exact ⟨rfl, rfl⟩
    | halt hrun' => cases (hrun.unique hrun').2
  | halt hrun =>
    cases h₂ with
    | cons hrun' => cases (hrun.unique hrun').2
    | halt hrun' => exact hrun.unique hrun'

/-! ## In the middle of reading

`Feeds step s [] (b :: ps)` is a reader with the input `b` at hand and the pieces
`ps` to come. What it does next decides how it goes on. -/

theorem feeds_cons_iff {p : List α} :
    Feeds step s b (p :: ps) out r ↔ Feeds step s [] ((b ++ p) :: ps) out r := by
  constructor
  · intro h
    cases h with
    | cons hrun hrest => exact .cons hrun hrest
    | halt hrun => exact .halt hrun
  · intro h
    cases h with
    | cons hrun hrest => exact .cons hrun hrest
    | halt hrun => exact .halt hrun

theorem feeds_next_iff (e : step s b = .next s' rest out₁) :
    Feeds step s [] (b :: ps) out r ↔
      ∃ out₂, out = out₁ ++ out₂ ∧ Feeds step s' [] (rest :: ps) out₂ r := by
  constructor
  · intro h
    cases h with
    | cons hrun hrest =>
      cases hrun with
      | wait e' => cases e.symm.trans e'
      | next e' hrun =>
        cases e.symm.trans e'
        exact ⟨_, List.append_assoc .., .cons hrun hrest⟩
    | halt hrun =>
      cases hrun with
      | halt e' => cases e.symm.trans e'
      | next e' hrun =>
        cases e.symm.trans e'
        exact ⟨_, rfl, .halt hrun⟩
  · rintro ⟨out₂, rfl, h⟩
    cases h with
    | cons hrun hrest =>
      rw [← List.append_assoc]
      exact .cons (.next e hrun) hrest
    | halt hrun => exact .halt (.next e hrun)

theorem feeds_halt_iff (h : step s b = .halt e s' out₁) :
    Feeds step s [] (b :: ps) out r ↔ out = out₁ ∧ r = .halted e s' := by
  have hhalt : Feeds step s [] (b :: ps) out₁ (.halted e s') := .halt (.halt h)
  constructor
  · exact fun hfeeds => hfeeds.deterministic hhalt
  · rintro ⟨rfl, rfl⟩
    exact hhalt

theorem feeds_wait_nil_iff (h : step s b = .wait) :
    Feeds step s [] [b] out r ↔ out = [] ∧ r = .waiting s b := by
  have hwait : Feeds step s [] [b] [] (.waiting s b) := .cons (.wait h) .nil
  constructor
  · exact fun hfeeds => hfeeds.deterministic hwait
  · rintro ⟨rfl, rfl⟩
    exact hwait

theorem feeds_wait_cons_iff {p : List α} (h : step s b = .wait) :
    Feeds step s [] (b :: p :: ps) out r ↔ Feeds step s [] ((b ++ p) :: ps) out r := by
  rw [← feeds_cons_iff]
  constructor
  · intro hfeeds
    cases hfeeds with
    | cons hrun hrest =>
      cases hrun with
      | wait => exact hrest
      | next e' => cases h.symm.trans e'
    | halt hrun =>
      cases hrun with
      | halt e' => cases h.symm.trans e'
      | next e' => cases h.symm.trans e'
  · exact fun hfeeds => .cons (.wait h) hfeeds

/-- A reader that waits is fed the next piece. -/
theorem feeds_wait_iff (h : step s b = .wait) :
    Feeds step s [] (b :: ps) out r ↔ Feeds step s b ps out r := by
  cases ps with
  | nil =>
    rw [feeds_wait_nil_iff h]
    constructor
    · rintro ⟨rfl, rfl⟩
      exact .nil
    · intro hfeeds
      cases hfeeds
      exact ⟨rfl, rfl⟩
  | cons p ps => exact (feeds_wait_cons_iff h).trans feeds_cons_iff.symm

/-- Feeding one piece is a run on it. -/
theorem feeds_single_iff : Feeds step s [] [b] out r ↔ Runs step s b out r := by
  constructor
  · intro h
    cases h with
    | cons hrun hrest =>
      cases hrest
      rwa [List.append_nil]
    | halt hrun => exact hrun
  · intro hrun
    cases r with
    | waiting s' rest =>
      rw [← List.append_nil out]
      exact .cons hrun .nil
    | halted e s' => exact .halt hrun

/-- Rounds on the input at hand are made first. -/
theorem Steps.feeds (hsteps : Steps step s b s' rest out₁)
    (h : Feeds step s [] (b :: ps) out r) :
    ∃ out₂, out = out₁ ++ out₂ ∧ Feeds step s' [] (rest :: ps) out₂ r := by
  induction hsteps generalizing out with
  | refl => exact ⟨out, rfl, h⟩
  | next e _ ih =>
    obtain ⟨out₂, rfl, hrest⟩ := (feeds_next_iff e).mp h
    obtain ⟨out₃, rfl, hrest'⟩ := ih hrest
    exact ⟨out₃, (List.append_assoc ..).symm, hrest'⟩

/-- What a reader has in hand and has not read pays for all that comes out, if every
round's output is paid for by what the round takes. -/
theorem Steps.potential (weight : σ → Nat) (size : List α → Nat) (cost : ω → Nat)
    (hstep : ∀ {s b s' rest out}, step s b = .next s' rest out →
      weight s' + (out.map cost).sum + size rest ≤ weight s + size b)
    (h : Steps step s b s' rest out) :
    weight s' + (out.map cost).sum + size rest ≤ weight s + size b := by
  induction h with
  | refl => exact Nat.le_refl _
  | next e _ ih =>
    have h₁ := hstep e
    rw [List.map_append, List.sum_append]
    omega

/-- Of two rows of rounds from one place, one is the beginning of the other. -/
theorem Steps.comparable {s₁ s₂ : σ} {b₁ b₂ : List α} (h₁ : Steps step s b s₁ b₁ out₁)
    (h₂ : Steps step s b s₂ b₂ out₂) :
    (∃ o, out₂ = out₁ ++ o ∧ Steps step s₁ b₁ s₂ b₂ o) ∨
      ∃ o, out₁ = out₂ ++ o ∧ Steps step s₂ b₂ s₁ b₁ o := by
  induction h₁ generalizing out₂ with
  | refl => exact .inl ⟨out₂, rfl, h₂⟩
  | next e₁ hrest₁ ih =>
    cases h₂ with
    | refl => exact .inr ⟨_, rfl, .next e₁ hrest₁⟩
    | next e₂ hrest₂ =>
      cases e₁.symm.trans e₂
      obtain ⟨o, rfl, h⟩ | ⟨o, rfl, h⟩ := ih hrest₂
      · exact .inl ⟨o, (List.append_assoc ..).symm, h⟩
      · exact .inr ⟨o, (List.append_assoc ..).symm, h⟩

/-! ## A limit on what is unread

A guarded reader halts on input that a limit forbids. A limit on the unread input
may forbid the whole stream and none of its pieces, so such a reader is not
stable; as long as the limit does not forbid the stream as a whole, cutting it
still changes nothing. -/

/-- The reader that halts with `e₀` before it looks at forbidden input. -/
def guarded (past : σ → List α → Bool) (e₀ : ε) (step : σ → List α → Action α σ ω ε) (s : σ)
    (b : List α) : Action α σ ω ε :=
  if past s b then .halt e₀ s [] else step s b

section Guarded

variable {past : σ → List α → Bool} {e₀ : ε}

theorem guarded_eq (h : past s b = false) : guarded past e₀ step s b = step s b :=
  if_neg (by simp [h])

theorem guarded_over (h : past s b = true) : guarded past e₀ step s b = .halt e₀ s [] :=
  if_pos h

/-- The rounds of a guarded reader are rounds of the reader. -/
theorem Steps.unguarded (h : Steps (guarded past e₀ step) s b s' rest out) :
    Steps step s b s' rest out := by
  induction h with
  | refl => exact .refl
  | @next s b _ _ _ _ _ _ e _ ih =>
    have hover : past s b = false := by
      by_contra ht
      cases (guarded_over (by simpa using ht)).symm.trans e
    exact .next ((guarded_eq hover).symm.trans e) ih

/-- What a guarded reader does first when it is fed: it halts at forbidden input,
waits for ever, halts by itself, or makes a step on some part of the stream. -/
theorem Feeds.guarded_cases (h : Feeds (guarded past e₀ step) s [] (b :: ps) out r) :
    (∃ b₁ x, b₁ ++ x = b ++ ps.flatten ∧ past s b₁ = true ∧ out = [] ∧ r = .halted e₀ s) ∨
    (past s (b ++ ps.flatten) = false ∧ step s (b ++ ps.flatten) = .wait ∧ out = [] ∧
      r = .waiting s (b ++ ps.flatten)) ∨
    (∃ b₁ x e s', b₁ ++ x = b ++ ps.flatten ∧ past s b₁ = false ∧
      step s b₁ = .halt e s' out ∧ r = .halted e s') ∨
    ∃ b₁ qs s' rest out₁ out₂, b₁ ++ qs.flatten = b ++ ps.flatten ∧ past s b₁ = false ∧
      step s b₁ = .next s' rest out₁ ∧ out = out₁ ++ out₂ ∧
      Feeds (guarded past e₀ step) s' [] (rest :: qs) out₂ r := by
  induction ps generalizing b with
  | nil =>
    rw [List.flatten_nil, List.append_nil]
    cases hover : past s b with
    | true =>
      obtain ⟨rfl, rfl⟩ := (feeds_halt_iff (guarded_over hover)).mp h
      exact .inl ⟨b, [], List.append_nil b, hover, rfl, rfl⟩
    | false =>
      cases hb : step s b with
      | wait =>
        obtain ⟨rfl, rfl⟩ := (feeds_wait_nil_iff ((guarded_eq hover).trans hb)).mp h
        exact .inr (.inl ⟨rfl, rfl, rfl, rfl⟩)
      | halt e s' o =>
        obtain ⟨rfl, rfl⟩ := (feeds_halt_iff ((guarded_eq hover).trans hb)).mp h
        exact .inr (.inr (.inl ⟨b, [], e, s', List.append_nil b, hover, hb, rfl⟩))
      | next s' rest o =>
        obtain ⟨out₂, rfl, hrest⟩ := (feeds_next_iff ((guarded_eq hover).trans hb)).mp h
        exact .inr (.inr (.inr ⟨b, [], s', rest, o, out₂, List.append_nil b, hover, hb, rfl,
          hrest⟩))
  | cons p ps ih =>
    rw [List.flatten_cons, ← List.append_assoc]
    cases hover : past s b with
    | true =>
      obtain ⟨rfl, rfl⟩ := (feeds_halt_iff (guarded_over hover)).mp h
      exact .inl ⟨b, p ++ ps.flatten, (List.append_assoc ..).symm, hover, rfl, rfl⟩
    | false =>
      cases hb : step s b with
      | wait =>
        rw [feeds_wait_cons_iff ((guarded_eq hover).trans hb)] at h
        exact ih h
      | halt e s' o =>
        obtain ⟨rfl, rfl⟩ := (feeds_halt_iff ((guarded_eq hover).trans hb)).mp h
        exact .inr (.inr (.inl ⟨b, p ++ ps.flatten, e, s', (List.append_assoc ..).symm, hover,
          hb, rfl⟩))
      | next s' rest o =>
        obtain ⟨out₂, rfl, hrest⟩ := (feeds_next_iff ((guarded_eq hover).trans hb)).mp h
        exact .inr (.inr (.inr ⟨b, p :: ps, s', rest, o, out₂, (List.append_assoc ..).symm, hover,
          hb, rfl, hrest⟩))

/-- With pieces still to come, a guarded reader makes the step that it would make
on the whole of them. -/
theorem Feeds.guarded_next (hs : Stable step I) (hI : I s)
    (hmono : ∀ s b x, past s b = true → past s (b ++ x) = true)
    (hover : past s (b ++ ps.flatten) = false)
    (hstep : step s (b ++ ps.flatten) = .next s' rest out₁)
    (h : Feeds (guarded past e₀ step) s [] (b :: ps) out r) :
    ∃ b' qs out₂, b' ++ qs.flatten = rest ∧ out = out₁ ++ out₂ ∧
      Feeds (guarded past e₀ step) s' [] (b' :: qs) out₂ r := by
  obtain ⟨b₁, x, hb₁, htrip, -⟩ | ⟨-, hwait, -⟩ | ⟨b₁, x, e, s₁, hb₁, -, hhalt, -⟩ |
    ⟨b₁, qs, s₁, rest₁, o, out₂, hb₁, -, hnext, hout, hrest⟩ := h.guarded_cases
  · rw [← hb₁, hmono s b₁ x htrip] at hover
    cases hover
  · cases hwait.symm.trans hstep
  · rw [← hb₁, hs.halt hI hhalt] at hstep
    cases hstep
  · rw [← hb₁, hs.next hI hnext] at hstep
    cases hstep
    exact ⟨rest₁, qs, out₂, rfl, hout, hrest⟩

/-- The same for any number of steps. -/
theorem Feeds.guarded_steps (hs : Stable step I) (hI : I s)
    (hmono : ∀ s b x, past s b = true → past s (b ++ x) = true) {b₀ : List α}
    (hsteps : Steps (guarded past e₀ step) s b₀ s' rest out₁) (hb : b ++ ps.flatten = b₀)
    (h : Feeds (guarded past e₀ step) s [] (b :: ps) out r) :
    I s' ∧ ∃ b' qs out₂, b' ++ qs.flatten = rest ∧ out = out₁ ++ out₂ ∧
      Feeds (guarded past e₀ step) s' [] (b' :: qs) out₂ r := by
  induction hsteps generalizing b ps out with
  | refl => exact ⟨hI, b, ps, out, hb, rfl, h⟩
  | @next s b₀ s₁ b₁ s₂ b₂ o os e _ ih =>
    have hover : past s b₀ = false := by
      by_contra ht
      rw [guarded_over (by simpa using ht)] at e
      cases e
    rw [guarded_eq hover] at e
    obtain ⟨b', qs, out₂, hb', rfl, h'⟩ :=
      h.guarded_next hs hI hmono (hb ▸ hover) (hb ▸ e)
    obtain ⟨hI', b'', qs', out₃, hb'', rfl, h''⟩ := ih (hs.keep hI e) hb' h'
    exact ⟨hI', b'', qs', out₃, hb'', (List.append_assoc ..).symm, h''⟩

/-- Less than `w` is not enough for a reader that takes `w`. -/
theorem Stable.wait_of_take (hs : Stable step I) (hI : I s) {w : List α}
    (htake : ∀ x, step s (w ++ x) = .next s' x out₁) (hb : b <+: w) (hlt : b.length < w.length) :
    step s b = .wait := by
  obtain ⟨x, rfl⟩ := hb
  cases e : step s b with
  | wait => rfl
  | halt e' s₁ o =>
    have hhalt := hs.halt (x := x) hI e
    have hnext := htake []
    rw [List.append_nil, hhalt] at hnext
    cases hnext
  | next s₁ b₁ o =>
    have hnext := hs.next (x := x) hI e
    have hnil := htake []
    rw [List.append_nil, hnext] at hnil
    injection hnil with _ hnil
    rw [List.append_eq_nil_iff] at hnil
    rw [hnil.2, List.append_nil] at hlt
    exact absurd hlt (Nat.lt_irrefl _)

/-- A reader that takes `w` waits until `w` is there. If the limit does not forbid what is
there at the end of any piece up to then, it takes `w` with the piece that completes it. -/
theorem Feeds.guarded_take (hs : Stable step I) (hI : I s) {w t : List α}
    (htake : ∀ x, step s (w ++ x) = .next s' x out₁) (hb : b ++ ps.flatten = w ++ t)
    (hfree : ∀ qs rs, ps = qs ++ rs →
      (∀ qs₁ p, qs = qs₁ ++ [p] → (b ++ qs₁.flatten).length < w.length) →
      past s (b ++ qs.flatten) = false)
    (h : Feeds (guarded past e₀ step) s [] (b :: ps) out r) :
    ∃ qs rs b' out₂, ps = qs ++ rs ∧ b ++ qs.flatten = w ++ b' ∧ b' ++ rs.flatten = t ∧
      (∀ qs₁ p, qs = qs₁ ++ [p] → (b ++ qs₁.flatten).length < w.length) ∧ out = out₁ ++ out₂ ∧
      Feeds (guarded past e₀ step) s' [] (b' :: rs) out₂ r := by
  -- by induction on the pieces: the one at hand completes `w`, or a later one does
  induction ps generalizing b with
  | nil =>
    have hover : past s b = false := by
      simpa using hfree [] [] rfl (by simp)
    rw [List.flatten_nil, List.append_nil] at hb
    subst hb
    obtain ⟨out₂, rfl, hrest⟩ := (feeds_next_iff ((guarded_eq hover).trans (htake t))).mp h
    exact ⟨[], [], t, out₂, rfl, by simp, by simp, by simp, rfl, hrest⟩
  | cons p ps ih =>
    have hover : past s b = false := by
      simpa using hfree [] (p :: ps) rfl (by simp)
    by_cases hlt : b.length < w.length
    · have hshorter : ∀ qs : List (List α),
          (∀ qs₁ p', qs = qs₁ ++ [p'] → (b ++ p ++ qs₁.flatten).length < w.length) →
          ∀ qs₁ p', p :: qs = qs₁ ++ [p'] → (b ++ qs₁.flatten).length < w.length := by
        intro qs hshort qs₁ p' hqs
        cases qs₁ with
        | nil => simpa using hlt
        | cons q qs₁ =>
          rw [List.cons_append, List.cons.injEq] at hqs
          obtain ⟨rfl, hqs⟩ := hqs
          have := hshort qs₁ p' hqs
          rwa [List.append_assoc, ← List.flatten_cons] at this
      have hbw : b <+: w :=
        List.prefix_of_prefix_length_le ⟨_, hb⟩ (List.prefix_append w t) (Nat.le_of_lt hlt)
      have hwait : guarded past e₀ step s b = .wait :=
        (guarded_eq hover).trans (hs.wait_of_take hI htake hbw hlt)
      rw [feeds_wait_cons_iff hwait] at h
      obtain ⟨qs, rs, b', out₂, rfl, hw, ht, hshort, rfl, hrest⟩ := ih
        (by rw [← hb, List.flatten_cons, List.append_assoc]) (fun qs rs hps hshort => by
          rw [List.append_assoc, ← List.flatten_cons]
          exact hfree (p :: qs) rs (by rw [hps]; rfl) (hshorter qs hshort)) h
      refine ⟨p :: qs, rs, b', out₂, rfl, ?_, ht, hshorter qs hshort, rfl, hrest⟩
      rw [← hw, List.flatten_cons, List.append_assoc]
    · obtain ⟨b', rfl⟩ : w <+: b :=
        List.prefix_of_prefix_length_le (List.prefix_append w t) ⟨_, hb⟩ (Nat.not_lt.mp hlt)
      obtain ⟨out₂, rfl, hrest⟩ := (feeds_next_iff ((guarded_eq hover).trans (htake b'))).mp h
      refine ⟨[], p :: ps, b', out₂, rfl, by simp, ?_, by simp, rfl, hrest⟩
      rw [List.append_assoc] at hb
      exact List.append_cancel_left hb

/-- Rounds that the reader makes without the limit it makes with the limit, or the limit
ends them. -/
theorem Feeds.guarded_or (hs : Stable step I) (hI : I s) {b₀ : List α}
    (hsteps : Steps step s b₀ s' rest out₁) (hb : b ++ ps.flatten = b₀)
    (h : Feeds (guarded past e₀ step) s [] (b :: ps) out r) :
    (∃ s₁, r = .halted e₀ s₁ ∧ out <+: out₁) ∨
      ∃ b' qs out₂, b' ++ qs.flatten = rest ∧ out = out₁ ++ out₂ ∧
        Feeds (guarded past e₀ step) s' [] (b' :: qs) out₂ r := by
  induction hsteps generalizing b ps out with
  | refl => exact .inr ⟨b, ps, out, hb, rfl, h⟩
  | @next s b₀ s₁ b₁ s₂ b₂ o os e _ ih =>
    obtain ⟨-, -, -, -, rfl, rfl⟩ | ⟨-, hwait, -⟩ | ⟨c, x, e', s', hc, -, hhalt, -⟩ |
      ⟨c, qs, s', rest', o', out₂, hc, -, hnext, rfl, hrest⟩ := h.guarded_cases
    · exact .inl ⟨s, rfl, List.nil_prefix⟩
    · rw [hb, e] at hwait
      cases hwait
    · rw [← hb, ← hc, hs.halt hI hhalt] at e
      cases e
    · rw [← hb, ← hc, hs.next hI hnext] at e
      cases e
      obtain ⟨s₁, rfl, hprefix⟩ | ⟨b', qs', out₃, hb', rfl, h'⟩ := ih (hs.keep hI hnext) rfl hrest
      · exact .inl ⟨s₁, rfl, (List.prefix_append_right_inj _).mpr hprefix⟩
      · exact .inr ⟨b', qs', out₃, hb', (List.append_assoc ..).symm, h'⟩

/-- Where the limit does not forbid the stream, its pieces are read as the whole
of it would be: until a halt, or up to the end. -/
theorem Feeds.guarded_stop (hs : Stable step I) (hI : I s)
    (hmono : ∀ s b x, past s b = true → past s (b ++ x) = true)
    (hover : past s (b ++ ps.flatten) = false)
    (hstop : ∀ s' rest out, step s (b ++ ps.flatten) ≠ .next s' rest out)
    (h : Feeds (guarded past e₀ step) s [] (b :: ps) out r) :
    Runs (guarded past e₀ step) s (b ++ ps.flatten) out r := by
  obtain ⟨b₁, x, hb₁, htrip, -⟩ | ⟨-, hwait, rfl, rfl⟩ | ⟨b₁, x, e, s₁, hb₁, -, hhalt, rfl⟩ |
    ⟨b₁, qs, s₁, rest₁, o, out₂, hb₁, -, hnext, -⟩ := h.guarded_cases
  · rw [← hb₁, hmono s b₁ x htrip] at hover
    cases hover
  · exact .wait ((guarded_eq hover).trans hwait)
  · rw [← hb₁] at hover ⊢
    exact .halt ((guarded_eq hover).trans (hs.halt hI hhalt))
  · rw [← hb₁] at hstop
    exact absurd (hs.next hI hnext) (hstop _ _ _)

/-- A run on the whole stream that the limit does not end is what comes of every
way of cutting it. -/
theorem Feeds.guarded_runs (hs : Stable step I) (hI : I s)
    (hmono : ∀ s b x, past s b = true → past s (b ++ x) = true) {b₀ : List α}
    (hrun : Runs (guarded past e₀ step) s b₀ out₁ r₁) (hfree : ∀ s', r₁ ≠ .halted e₀ s')
    (hb : b ++ ps.flatten = b₀) (h : Feeds (guarded past e₀ step) s [] (b :: ps) out r) :
    out = out₁ ∧ r = r₁ := by
  have hnotover : ∀ {s : σ} {b₀ : List α} {act}, guarded past e₀ step s b₀ = act →
      act ≠ .halt e₀ s [] → past s b₀ = false := by
    intro s b₀ act e hne
    by_contra ht
    exact hne (e.symm.trans (guarded_over (by simpa using ht)))
  induction hrun generalizing b ps out with
  | wait e =>
    have hover := hnotover e nofun
    have hrun := h.guarded_stop hs hI hmono (hb ▸ hover) (by
      intro s' rest o e'
      rw [hb] at e'
      rw [guarded_eq hover, e'] at e
      cases e)
    rw [hb] at hrun
    exact hrun.unique (.wait e)
  | halt e =>
    have hover := hnotover e (by
      rintro ⟨rfl, rfl, rfl⟩
      exact hfree _ rfl)
    have hrun := h.guarded_stop hs hI hmono (hb ▸ hover) (by
      intro s' rest o e'
      rw [hb] at e'
      rw [guarded_eq hover, e'] at e
      cases e)
    rw [hb] at hrun
    exact hrun.unique (.halt e)
  | next e _ ih =>
    have hover := hnotover e nofun
    rw [guarded_eq hover] at e
    obtain ⟨b', qs, out₂, hb', rfl, h'⟩ := h.guarded_next hs hI hmono (hb ▸ hover) (hb ▸ e)
    obtain ⟨rfl, rfl⟩ := ih (hs.keep hI e) hfree hb' h'
    exact ⟨rfl, rfl⟩

/-- Rounds up to some point need no more than the input up to there. -/
theorem Steps.used (hs : Stable step fun _ => True)
    (hlocal : ∀ {s b s' rest out}, step s b = .next s' rest out →
      ∃ used, b = used ++ rest ∧ step s used = .next s' [] out)
    (hmono : ∀ s b x, past s b = true → past s (b ++ x) = true)
    (h : Steps (guarded past e₀ step) s b s' rest out) :
    ∃ used, b = used ++ rest ∧ Steps (guarded past e₀ step) s used s' [] out := by
  induction h with
  | refl => exact ⟨[], rfl, .refl⟩
  | @next s b s₁ b₁ s₂ b₂ o os e _ ih =>
    obtain ⟨used₂, rfl, hsteps⟩ := ih
    have hover : past s b = false := by
      by_contra ht
      rw [guarded_over (by simpa using ht)] at e
      cases e
    rw [guarded_eq hover] at e
    obtain ⟨used₁, rfl, hstep⟩ := hlocal e
    refine ⟨used₁ ++ used₂, (List.append_assoc ..).symm, .next ?_ hsteps⟩
    have hover' : past s (used₁ ++ used₂) = false := by
      by_contra ht
      rw [← List.append_assoc, hmono _ _ b₂ (by simpa using ht)] at hover
      cases hover
    exact (guarded_eq hover').trans (hs.next trivial hstep)

end Guarded

end Incremental
