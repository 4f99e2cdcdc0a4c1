import Mathlib.Data.Int.CardIntervalMod

/-!
# Rejection sampling

Words are drawn from a source until one of them is accepted. `sample` is such a
loop, and it returns what the first accepted word is mapped to. The second part
counts: of the words below `N`, those from `N % m` on fall evenly on the residues
modulo `m`, and they are more than half of all.
-/

namespace Rejection

section Sample

variable {σ ω α β : Type} {next : σ → ω × σ} {accept : ω → Option α} {fuel : Nat} {s s' : σ} {a : α}

/-- Draws at most `fuel` words, until one is accepted. -/
def sample (next : σ → ω × σ) (accept : ω → Option α) : Nat → σ → Option (α × σ)
  | 0, _ => none
  | fuel + 1, s =>
    match accept (next s).1 with
    | some a => some (a, (next s).2)
    | none => sample next accept fuel (next s).2

/-- The state of the source after `n` words. -/
def after (next : σ → ω × σ) (s : σ) : Nat → σ
  | 0 => s
  | n + 1 => after next (next s).2 n

/-- The word drawn after `n` others. -/
def word (next : σ → ω × σ) (s : σ) (n : Nat) : ω := (next (after next s n)).1

@[simp] theorem after_zero : after next s 0 = s := rfl

@[simp] theorem after_succ (n : Nat) : after next s (n + 1) = after next (next s).2 n := rfl

@[simp] theorem word_zero : word next s 0 = (next s).1 := rfl

@[simp] theorem word_succ (n : Nat) : word next s (n + 1) = word next (next s).2 n := rfl

theorem sample_accepted (h : accept (next s).1 = some a) :
    sample next accept (fuel + 1) s = some (a, (next s).2) := by
  rw [sample, h]

theorem sample_rejected (h : accept (next s).1 = none) :
    sample next accept (fuel + 1) s = sample next accept fuel (next s).2 := by
  rw [sample, h]

/-- The loop returns the value of the first accepted word, and the source is left
right behind that word. -/
theorem sample_eq_some_iff :
    sample next accept fuel s = some (a, s') ↔
      ∃ n < fuel, (∀ k < n, accept (word next s k) = none) ∧
        accept (word next s n) = some a ∧ s' = after next s (n + 1) := by
  induction fuel generalizing s with
  | zero =>
    constructor
    · intro h
      cases h
    · rintro ⟨n, hn, -⟩
      exact absurd hn (Nat.not_lt_zero n)
  | succ fuel ih =>
    cases hfirst : accept (next s).1 with
    | some b =>
      rw [sample_accepted hfirst]
      constructor
      · intro h
        cases h
        exact ⟨0, Nat.succ_pos fuel, fun k hk => absurd hk (Nat.not_lt_zero k), hfirst, rfl⟩
      · rintro ⟨n, -, hrejected, haccepted, rfl⟩
        cases n with
        | zero =>
          rw [word_zero, hfirst] at haccepted
          cases haccepted
          rfl
        | succ n =>
          have h := hrejected 0 (Nat.succ_pos n)
          rw [word_zero, hfirst] at h
          cases h
    | none =>
      rw [sample_rejected hfirst, ih]
      constructor
      · rintro ⟨n, hn, hrejected, haccepted, rfl⟩
        refine ⟨n + 1, Nat.succ_lt_succ hn, ?_, haccepted, rfl⟩
        intro k hk
        cases k with
        | zero => exact hfirst
        | succ k => exact hrejected k (Nat.lt_of_succ_lt_succ hk)
      · rintro ⟨n, hn, hrejected, haccepted, rfl⟩
        cases n with
        | zero =>
          rw [word_zero, hfirst] at haccepted
          cases haccepted
        | succ n =>
          exact ⟨n, Nat.lt_of_succ_lt_succ hn,
            fun k hk => hrejected (k + 1) (Nat.succ_lt_succ hk), haccepted, rfl⟩

/-- A function of the result can be applied to each accepted word. -/
theorem sample_map (f : α → β) :
    (sample next accept fuel s).map (Prod.map f id) =
      sample next (fun w => (accept w).map f) fuel s := by
  induction fuel generalizing s with
  | zero => rfl
  | succ fuel ih =>
    cases hfirst : accept (next s).1 with
    | some b =>
      rw [sample_accepted hfirst, sample_accepted (by rw [hfirst, Option.map_some])]
      rfl
    | none =>
      rw [sample_rejected hfirst, sample_rejected (by rw [hfirst, Option.map_none])]
      exact ih

end Sample

section Count

variable {N m v : Nat}

/-- The words below the threshold are as many as it says. -/
theorem count_le (c : Nat) (hc : c ≤ N) : Nat.count (c ≤ ·) N = N - c := by
  have hbelow : Nat.count (c ≤ ·) c = 0 := Nat.count_iff_forall_not.2 fun k hk => Nat.not_le.2 hk
  have habove : Nat.count (fun k => c ≤ c + k) (N - c) = N - c :=
    Nat.count_iff_forall.2 fun k _ => Nat.le_add_right c k
  calc Nat.count (c ≤ ·) N = Nat.count (c ≤ ·) (c + (N - c)) := by rw [Nat.add_sub_cancel' hc]
    _ = N - c := by rw [Nat.count_add, hbelow, habove, Nat.zero_add]

/-- Two predicates with the same words have the same number of them. -/
theorem count_congr {p q : Nat → Prop} [DecidablePred p] [DecidablePred q]
    (h : ∀ k < N, p k ↔ q k) : Nat.count p N = Nat.count q N :=
  Nat.le_antisymm (Nat.count_mono_left fun k hk => (h k hk).1)
    (Nat.count_mono_left fun k hk => (h k hk).2)

/-- Each residue has the same number of accepted words. -/
theorem count_residue (hv : v < m) :
    Nat.count (fun r => N % m ≤ r ∧ r % m = v) N = N / m := by
  have hm : 0 < m := Nat.zero_lt_of_lt hv
  have hsplit : N % m + m * (N / m) = N := Nat.mod_add_div N m
  have hbelow : Nat.count (fun r => N % m ≤ r ∧ r % m = v) (N % m) = 0 :=
    Nat.count_iff_forall_not.2 fun k hk h => absurd h.1 (Nat.not_le.2 hk)
  have habove : Nat.count (fun k => N % m ≤ N % m + k ∧ (N % m + k) % m = v) (m * (N / m)) =
      Nat.count (fun k => N % m + k ≡ v [MOD m]) (m * (N / m)) := by
    apply count_congr
    intro k hk
    rw [Nat.ModEq, Nat.mod_eq_of_lt hv]
    exact and_iff_right (Nat.le_add_right (N % m) k)
  -- The dropped words hold the residue as often as `N` has it on top of the quotient.
  have hall : Nat.count (· ≡ v [MOD m]) N =
      Nat.count (· ≡ v [MOD m]) (N % m) +
        Nat.count (fun k => N % m + k ≡ v [MOD m]) (m * (N / m)) := by
    rw [← Nat.count_add, hsplit]
  rw [Nat.count_modEq_card N hm v, Nat.count_modEq_card (N % m) hm v, Nat.mod_mod,
    Nat.div_eq_of_lt (Nat.mod_lt N hm)] at hall
  calc Nat.count (fun r => N % m ≤ r ∧ r % m = v) N
      = Nat.count (fun r => N % m ≤ r ∧ r % m = v) (N % m + m * (N / m)) := by rw [hsplit]
    _ = Nat.count (fun k => N % m + k ≡ v [MOD m]) (m * (N / m)) := by
      rw [Nat.count_add, hbelow, habove, Nat.zero_add]
    _ = N / m := by omega

/-- More than half of the words are accepted. -/
theorem half_lt_count (hm : 0 < m) (hle : m ≤ N) : N < 2 * Nat.count (N % m ≤ ·) N := by
  have hmod : N % m < m := Nat.mod_lt N hm
  have hdiv : m ≤ m * (N / m) := Nat.le_mul_of_pos_right m (Nat.div_pos hle hm)
  have hsplit : N % m + m * (N / m) = N := Nat.mod_add_div N m
  rw [count_le _ (Nat.mod_le N m)]
  omega

end Count

end Rejection
