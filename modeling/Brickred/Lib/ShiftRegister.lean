import Mathlib.Data.Finite.Prod
import Mathlib.Data.Fintype.Pigeonhole
import Mathlib.Data.Fintype.Pi

/-!
# Shift registers

A sequence in which each element is made of three before it: the oldest of the last
`n`, the one behind that, and the one `m` behind it. A generator keeps the last `n`
elements in a ring that it overwrites in place (`Holds`).

Of the oldest element the mixing function may use only a part. Where that part can be
recovered (`Reversible`), two windows that agree in what matters have the same future
and the same past, and a sequence of elements of a finite type repeats from the
beginning.
-/

namespace ShiftRegister

variable {α β : Type} {n m : Nat} {mix : α → α → α → α} {vis : α → β}

theorem behind_lt {k i : Nat} (hi : i < n) (hk : ¬ k < n) : k - n + i < k := by
  omega

/-- The sequence that starts with a window. -/
def stream (mix : α → α → α → α) (hn : 1 < n) (hm : m < n) (w : Vector α n) (k : Nat) : α :=
  if h : k < n then w[k]
  else
    mix (stream mix hn hm w (k - n)) (stream mix hn hm w (k - n + 1)) (stream mix hn hm w (k - n + m))
termination_by k
decreasing_by
  · exact behind_lt (Nat.zero_lt_of_lt hn) h
  · exact behind_lt hn h
  · exact behind_lt hm h

/-- The recurrence. -/
def Obeys (n m : Nat) (mix : α → α → α → α) (x : Nat → α) : Prop :=
  ∀ k, x (k + n) = mix (x k) (x (k + 1)) (x (k + m))

theorem stream_lt (hn : 1 < n) (hm : m < n) (w : Vector α n) {k : Nat} (hk : k < n) :
    stream mix hn hm w k = w[k] := by
  rw [stream, dif_pos hk]

theorem stream_obeys (hn : 1 < n) (hm : m < n) (w : Vector α n) :
    Obeys n m mix (stream mix hn hm w) := by
  intro k
  rw [stream, dif_neg (Nat.not_lt.mpr (Nat.le_add_left n k)), Nat.add_sub_cancel]

/-! ## The ring -/

/-- The ring holds the `n` elements from `i` on. -/
def Holds (x : Nat → α) (i : Nat) (w : Vector α n) : Prop :=
  ∀ (j k : Nat) (hj : j < n), k % n = j → i ≤ k → k < i + n → w[j] = x k

theorem stream_holds (hn : 1 < n) (hm : m < n) (w : Vector α n) :
    Holds (stream mix hn hm w) 0 w := by
  intro j k hj hmod _ hk
  rw [Nat.zero_add] at hk
  obtain rfl : k = j := by rw [← hmod, Nat.mod_eq_of_lt hk]
  exact (stream_lt hn hm w hk).symm

/-- The element that leaves the window gives its place to the one that enters it. -/
theorem Holds.set {x : Nat → α} {i j : Nat} {w : Vector α n} {v : α} (h : Holds x i w) (hj : j < n)
    (hmod : i % n = j) (hv : v = x (i + n)) : Holds x (i + 1) (w.set j v) := by
  intro l k hl hk hlo hhi
  rw [Vector.getElem_set]
  by_cases hjl : j = l
  · rw [if_pos hjl, hv]
    -- `k` and `i` have the same place in the ring, so they are `n` apart
    have hsame : k % n = i % n := by rw [hk, hmod, hjl]
    have hdiff : (k - i) % n = 0 := Nat.sub_mod_eq_zero_of_mod_eq hsame
    obtain ⟨c, hc⟩ := Nat.dvd_of_mod_eq_zero hdiff
    have hone : c = 1 := by
      have hpos : 0 < n * c := by omega
      have hlt : n * c < n * 2 := by omega
      have hc2 : c < 2 := Nat.lt_of_mul_lt_mul_left hlt
      have hc0 : 0 < c := Nat.pos_of_mul_pos_left hpos
      omega
    rw [hone, Nat.mul_one] at hc
    exact congrArg x (by omega)
  · rw [if_neg hjl]
    have hne : k ≠ i + n := by
      rintro rfl
      rw [Nat.add_mod_right] at hk
      exact hjl (hmod.symm.trans hk)
    exact h l k hl hk (by omega) (by omega)

/-- What a loop keeps from each index to the next, it keeps to the end. -/
theorem foldl_rule {γ : Type} {n : Nat} {P : Nat → γ → Prop} {f : γ → Fin n → γ} {a : γ} (h : P 0 a)
    (hstep : ∀ (i : Fin n) (a : γ), P i.val a → P (i.val + 1) (f a i)) : P n (Fin.foldl n f a) := by
  induction n with
  | zero =>
    rw [Fin.foldl_zero]
    exact h
  | succ n ih =>
    rw [Fin.foldl_succ_last]
    exact hstep (Fin.last n) _ (ih fun i a hi => hstep i.castSucc a hi)

/-! ## Windows that agree -/

/-- The part `vis` of the oldest element is what matters of it. -/
structure Reversible (mix : α → α → α → α) (vis : α → β) : Prop where
  forget : ∀ {a a' b c : α}, vis a = vis a' → mix a b c = mix a' b c
  recover : ∀ {a a' b b' c : α}, mix a b c = mix a' b' c →
    vis a = vis a' ∧ (vis b = vis b' → b = b')

/-- The window of one sequence and that of another agree in what matters. -/
def Agree (n : Nat) (vis : α → β) (x y : Nat → α) (i j : Nat) : Prop :=
  vis (x i) = vis (y j) ∧ ∀ l, 0 < l → l < n → x (i + l) = y (j + l)

theorem agree_succ_iff (hmix : Reversible mix vis) {x y : Nat → α} {i j : Nat}
    (hx : Obeys n m mix x) (hy : Obeys n m mix y) (hm : 1 < m) (hmn : m < n) :
    Agree n vis x y (i + 1) (j + 1) ↔ Agree n vis x y i j := by
  constructor
  · rintro ⟨hvis, hwords⟩
    have hnext : ∀ l, 1 < l → l ≤ n → x (i + l) = y (j + l) := by
      intro l hl hle
      have h := hwords (l - 1) (by omega) (by omega)
      rwa [show i + 1 + (l - 1) = i + l by omega, show j + 1 + (l - 1) = j + l by omega] at h
    have hmixed := hnext n (hm.trans hmn) (Nat.le_refl n)
    rw [hx, hy, hnext m hm hmn.le] at hmixed
    obtain ⟨hfirst, hsecond⟩ := hmix.recover hmixed
    refine ⟨hfirst, fun l hl hln => ?_⟩
    by_cases hone : l = 1
    · rw [hone]
      exact hsecond hvis
    · exact hnext l (by omega) hln.le
  · rintro ⟨hvis, hwords⟩
    refine ⟨congrArg vis (hwords 1 Nat.one_pos (hm.trans hmn)), fun l hl hln => ?_⟩
    by_cases hlast : l + 1 = n
    · rw [show i + 1 + l = i + n by omega, show j + 1 + l = j + n by omega, hx, hy,
        hwords 1 Nat.one_pos (hm.trans hmn), hwords m (by omega) hmn]
      exact hmix.forget hvis
    · have h := hwords (l + 1) (Nat.succ_pos l) (by omega)
      rwa [show i + 1 + l = i + (l + 1) by omega, show j + 1 + l = j + (l + 1) by omega]

/-- Windows that agree have agreed from the start, and will. -/
theorem agree_add_iff (hmix : Reversible mix vis) {x y : Nat → α} {i j : Nat}
    (hx : Obeys n m mix x) (hy : Obeys n m mix y) (hm : 1 < m) (hmn : m < n) (k : Nat) :
    Agree n vis x y (i + k) (j + k) ↔ Agree n vis x y i j := by
  induction k with
  | zero => rfl
  | succ k ih =>
    rw [← ih]
    exact agree_succ_iff hmix hx hy hm hmn

/-- A sequence over a finite type is periodic, without a part before the period. -/
theorem exists_period [Finite α] [Finite β] (hmix : Reversible mix vis) {x : Nat → α}
    (hx : Obeys n m mix x) (hm : 1 < m) (hmn : m < n) :
    ∃ p, 0 < p ∧ ∀ k, Agree n vis x x (p + k) k := by
  let window (i : Nat) : β × (Fin n → α) := (vis (x i), fun l => x (i + max 1 l.val))
  have hagree : ∀ i j, window i = window j → Agree n vis x x i j := by
    intro i j h
    obtain ⟨hvis, hwords⟩ := Prod.ext_iff.mp h
    refine ⟨hvis, fun l hl hln => ?_⟩
    have hword := congrFun hwords ⟨l, hln⟩
    have hmax : max 1 l = l := Nat.max_eq_right hl
    change x (i + max 1 l) = x (j + max 1 l) at hword
    rwa [hmax] at hword
  obtain ⟨i, j, hne, hsame⟩ := Finite.exists_ne_map_eq_of_infinite window
  have hback : ∀ i p, window (p + i) = window i → ∀ k, Agree n vis x x (p + k) k := by
    intro i p h k
    have hstart := (agree_add_iff (i := p) (j := 0) hmix hx hx hm hmn i).mp
      (by simpa using hagree _ _ h)
    simpa using (agree_add_iff hmix hx hx hm hmn k).mpr hstart
  rcases Nat.lt_or_gt_of_ne hne with hlt | hlt
  · exact ⟨j - i, Nat.sub_pos_of_lt hlt, hback i _ (by rw [Nat.sub_add_cancel hlt.le, hsame])⟩
  · exact ⟨i - j, Nat.sub_pos_of_lt hlt, hback j _ (by rw [Nat.sub_add_cancel hlt.le, hsame])⟩

end ShiftRegister
