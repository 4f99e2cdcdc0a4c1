import Mathlib.Logic.Function.Basic

/-!
# Xor with a shifted copy

A word mixed with a shifted and masked copy of itself can be recovered: the bits
the shift leaves alone are the word's own, and each other bit is undone by one
that is already known.
-/

namespace XorShift

variable {w k : Nat}

theorem injective_shiftRight (hk : 0 < k) :
    Function.Injective fun x : BitVec w => x ^^^ (x >>> k) := by
  intro x y h
  have hbits : ∀ n i, w ≤ i + n → x.getLsbD i = y.getLsbD i := by
    intro n
    -- from the highest bit down: bit `i` was mixed with bit `k + i`
    induction n with
    | zero =>
      intro i hi
      rw [BitVec.getLsbD_of_ge x i hi, BitVec.getLsbD_of_ge y i hi]
    | succ n ih =>
      intro i hi
      have hbit : (x ^^^ (x >>> k)).getLsbD i = (y ^^^ (y >>> k)).getLsbD i :=
        congrArg (BitVec.getLsbD · i) h
      rw [BitVec.getLsbD_xor, BitVec.getLsbD_xor, BitVec.getLsbD_ushiftRight,
        BitVec.getLsbD_ushiftRight, ih (k + i) (by omega)] at hbit
      exact Bool.xor_left_inj.1 hbit
  apply BitVec.eq_of_getLsbD_eq
  intro i hi
  exact hbits w i (Nat.le_add_left w i)

theorem injective_shiftLeft_and (mask : BitVec w) (hk : 0 < k) :
    Function.Injective fun x : BitVec w => x ^^^ ((x <<< k) &&& mask) := by
  intro x y h
  have hbits : ∀ n, ∀ i < n, x.getLsbD i = y.getLsbD i := by
    intro n
    -- from the lowest bit up: bit `i` was mixed with bit `i - k`, if there is one
    induction n with
    | zero =>
      intro i hi
      exact absurd hi (Nat.not_lt_zero i)
    | succ n ih =>
      intro i hi
      have hbit : (x ^^^ ((x <<< k) &&& mask)).getLsbD i =
          (y ^^^ ((y <<< k) &&& mask)).getLsbD i := congrArg (BitVec.getLsbD · i) h
      rw [BitVec.getLsbD_xor, BitVec.getLsbD_xor, BitVec.getLsbD_and, BitVec.getLsbD_and,
        BitVec.getLsbD_shiftLeft, BitVec.getLsbD_shiftLeft] at hbit
      by_cases hlow : i < k
      · simpa [hlow] using hbit
      · rw [ih (i - k) (by omega)] at hbit
        exact Bool.xor_left_inj.1 hbit
  apply BitVec.eq_of_getLsbD_eq
  intro i hi
  exact hbits w i hi

end XorShift
