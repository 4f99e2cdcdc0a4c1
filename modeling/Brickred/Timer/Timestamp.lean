import Mathlib.Data.Int.Basic
import Mathlib.Tactic.Ring

/-!
# Timestamps (`timestamp.h`, `timestamp.cc`)

A timestamp counts seconds and nanoseconds. The only ways to make one (the
default constructor, the clock, copying and `+=`) keep the nanoseconds below
one second, so the range is a field here. Seconds are integers without a bound:
the code is undefined where they overflow. A distance is computed in `int64_t`,
whose range it can leave while both timestamps are within it: the result is then the
wrapped one, as compiled.
-/

namespace Brickred

/-- `Timestamp` -/
@[ext]
structure Timestamp where
  second : Int
  nanosecond : Int
  nanosecond_nonneg : 0 ≤ nanosecond
  nanosecond_lt : nanosecond < 1000000000
  deriving DecidableEq

namespace Timestamp

/-- `Timestamp::Timestamp` -/
def zero : Timestamp := ⟨0, 0, by decide, by decide⟩

instance : Inhabited Timestamp := ⟨zero⟩

/-- `Timestamp::getMilliSecond` -/
def getMilliSecond (t : Timestamp) : Int := t.nanosecond.tdiv 1000000

/-- Adding the part below one second leaves at most one second to carry. -/
theorem nanosecond_add_range (t : Timestamp) (millisecond : Int) :
    -1000000000 < t.nanosecond + millisecond.tmod 1000 * 1000000 ∧
      t.nanosecond + millisecond.tmod 1000 * 1000000 < 2000000000 := by
  have hlo := t.nanosecond_nonneg
  have hhi := t.nanosecond_lt
  have h₁ := Int.tmod_lt_of_pos millisecond (show (0 : Int) < 1000 by decide)
  have h₂ := Int.lt_tmod_of_pos millisecond (show (0 : Int) < 1000 by decide)
  constructor <;> omega

/-- `Timestamp::operator+=`, where `/` and `%` round towards zero. -/
def add (t : Timestamp) (millisecond : Int) : Timestamp :=
  let second := t.second + millisecond.tdiv 1000
  let nanosecond := t.nanosecond + millisecond.tmod 1000 * 1000000
  have hrange := t.nanosecond_add_range millisecond
  if h₁ : nanosecond ≥ 1000000000 then
    ⟨second + 1, nanosecond - 1000000000, by omega, by omega⟩
  else if h₂ : nanosecond < 0 then
    ⟨second - 1, nanosecond + 1000000000, by omega, by omega⟩
  else
    ⟨second, nanosecond, by omega, by omega⟩

/-- `Timestamp::operator<` -/
def lt (t other : Timestamp) : Bool :=
  if t.second ≠ other.second then t.second < other.second else t.nanosecond < other.nanosecond

/-- `Timestamp::millisecondLess` -/
def millisecondLess (t other : Timestamp) : Bool :=
  if t.second ≠ other.second then t.second < other.second
  else t.getMilliSecond < other.getMilliSecond

/-- `Timestamp::millisecondEqual` -/
def millisecondEqual (t other : Timestamp) : Bool :=
  t.second == other.second && t.getMilliSecond == other.getMilliSecond

/-- What an operation on `int64_t` leaves of its result. -/
def int64 (x : Int) : Int := x.bmod (2 ^ 64)

/-- `Timestamp::distanceMillisecond` -/
def distanceMillisecond (t other : Timestamp) : Int :=
  let (bigger, smaller) := if t.lt other then (other, t) else (t, other)
  int64 (int64 (int64 (bigger.second - smaller.second) * 1000) +
    (bigger.getMilliSecond - smaller.getMilliSecond))

/-! ## Timestamps as counts -/

/-- The nanoseconds since the epoch. -/
def nanos (t : Timestamp) : Int := t.second * 1000000000 + t.nanosecond

/-- The milliseconds since the epoch, rounded down. -/
def millis (t : Timestamp) : Int := t.second * 1000 + t.nanosecond / 1000000

theorem getMilliSecond_eq (t : Timestamp) : t.getMilliSecond = t.nanosecond / 1000000 :=
  Int.tdiv_eq_ediv_of_nonneg t.nanosecond_nonneg

theorem millis_eq (t : Timestamp) : t.millis = t.nanos / 1000000 := by
  unfold millis nanos
  omega

/-- `operator<` is the order of the nanosecond counts. -/
theorem lt_iff (t other : Timestamp) : t.lt other = true ↔ t.nanos < other.nanos := by
  have h₁ := t.nanosecond_nonneg
  have h₂ := t.nanosecond_lt
  have h₃ := other.nanosecond_nonneg
  have h₄ := other.nanosecond_lt
  unfold lt nanos
  split <;> simp only [decide_eq_true_eq] <;> omega

/-- `millisecondLess` is the order of the millisecond counts. -/
theorem millisecondLess_iff (t other : Timestamp) :
    t.millisecondLess other = true ↔ t.millis < other.millis := by
  have h₁ := t.nanosecond_nonneg
  have h₂ := t.nanosecond_lt
  have h₃ := other.nanosecond_nonneg
  have h₄ := other.nanosecond_lt
  unfold millisecondLess millis
  rw [getMilliSecond_eq, getMilliSecond_eq]
  split <;> simp only [decide_eq_true_eq] <;> omega

/-- `millisecondEqual` is the equality of the millisecond counts. -/
theorem millisecondEqual_iff (t other : Timestamp) :
    t.millisecondEqual other = true ↔ t.millis = other.millis := by
  have h₁ := t.nanosecond_nonneg
  have h₂ := t.nanosecond_lt
  have h₃ := other.nanosecond_nonneg
  have h₄ := other.nanosecond_lt
  unfold millisecondEqual millis
  rw [getMilliSecond_eq, getMilliSecond_eq, Bool.and_eq_true, beq_iff_eq, beq_iff_eq]
  constructor
  · rintro ⟨hs, hn⟩
    rw [hs, hn]
  · intro h
    constructor <;> omega

/-- Adding milliseconds is exact. -/
theorem nanos_add (t : Timestamp) (millisecond : Int) :
    (t.add millisecond).nanos = t.nanos + millisecond * 1000000 := by
  have hdiv := Int.mul_tdiv_add_tmod millisecond 1000
  have hsum : (t.second + millisecond.tdiv 1000) * 1000000000 +
      (t.nanosecond + millisecond.tmod 1000 * 1000000) = t.nanos + millisecond * 1000000 := by
    unfold nanos
    omega
  rw [← hsum]
  unfold add nanos
  dsimp only
  split
  · dsimp only
    omega
  · split <;> dsimp only
    omega

theorem millis_add (t : Timestamp) (millisecond : Int) :
    (t.add millisecond).millis = t.millis + millisecond := by
  rw [millis_eq, millis_eq, nanos_add]
  omega

/-- A timestamp is its count of nanoseconds. -/
theorem nanos_inj {t other : Timestamp} : t.nanos = other.nanos ↔ t = other := by
  constructor
  · intro h
    have h₁ := t.nanosecond_nonneg
    have h₂ := t.nanosecond_lt
    have h₃ := other.nanosecond_nonneg
    have h₄ := other.nanosecond_lt
    unfold nanos at h
    ext <;> omega
  · rintro rfl
    rfl

theorem add_zero (t : Timestamp) : t.add 0 = t := by
  rw [← nanos_inj, nanos_add]
  omega

theorem add_add (t : Timestamp) (m n : Int) : (t.add m).add n = t.add (m + n) := by
  rw [← nanos_inj, nanos_add, nanos_add, nanos_add]
  omega

/-- An earlier timestamp is not later by milliseconds. -/
theorem millis_mono {t other : Timestamp} (h : t.nanos ≤ other.nanos) :
    t.millis ≤ other.millis := by
  rw [millis_eq, millis_eq]
  omega

/-- No operation of `distanceMillisecond` leaves the range of `int64_t`: neither the
product of the seconds with 1000 nor the sum with the milliseconds. -/
def DistanceFits (t other : Timestamp) : Prop :=
  (t.second - other.second).natAbs * 1000 < 2 ^ 63 ∧ (t.millis - other.millis).natAbs < 2 ^ 63

instance (t other : Timestamp) : Decidable (t.DistanceFits other) :=
  inferInstanceAs (Decidable (_ ∧ _))

theorem DistanceFits.symm {t other : Timestamp} (h : t.DistanceFits other) :
    other.DistanceFits t := by
  rw [DistanceFits, ← Int.neg_sub t.second, ← Int.neg_sub t.millis, Int.natAbs_neg,
    Int.natAbs_neg]
  exact h

theorem int64_eq {x : Int} (hlo : -2 ^ 63 ≤ x) (hhi : x < 2 ^ 63) : int64 x = x :=
  Int.bmod_eq_of_le (by omega) (by omega)

/-- The two operands are read field by field, yet the result is a difference of counts. -/
theorem distanceMillisecond_eq_sub {bigger smaller : Timestamp}
    (hfits : bigger.DistanceFits smaller) :
    int64 (int64 (int64 (bigger.second - smaller.second) * 1000) +
      (bigger.getMilliSecond - smaller.getMilliSecond)) = bigger.millis - smaller.millis := by
  obtain ⟨hproduct, hsum⟩ := hfits
  have hmillis : (bigger.second - smaller.second) * 1000 +
      (bigger.getMilliSecond - smaller.getMilliSecond) = bigger.millis - smaller.millis := by
    unfold millis
    rw [getMilliSecond_eq, getMilliSecond_eq]
    ring
  have hsecond : int64 (bigger.second - smaller.second) = bigger.second - smaller.second :=
    int64_eq (by omega) (by omega)
  have hthousand : int64 ((bigger.second - smaller.second) * 1000) =
      (bigger.second - smaller.second) * 1000 := int64_eq (by omega) (by omega)
  rw [hsecond, hthousand, hmillis]
  exact int64_eq (by omega) (by omega)

/-- `distanceMillisecond` is the distance of the millisecond counts. -/
theorem distanceMillisecond_eq {t other : Timestamp} (hfits : t.DistanceFits other) :
    t.distanceMillisecond other = ((t.millis - other.millis).natAbs : Int) := by
  unfold distanceMillisecond
  by_cases hlt : t.lt other = true
  · -- The later operand by nanoseconds is not the earlier one by milliseconds.
    have hle := millis_mono (Int.le_of_lt ((lt_iff t other).1 hlt))
    rw [if_pos hlt]
    dsimp only
    rw [distanceMillisecond_eq_sub hfits.symm]
    omega
  · have hle := millis_mono (Int.not_lt.1 (mt (lt_iff t other).2 hlt))
    rw [if_neg hlt]
    dsimp only
    rw [distanceMillisecond_eq_sub hfits]
    omega

/-- What the operations do, read on the counts of nanoseconds: the sum stays
normalised and is exact, the comparisons are those of the counts and of the
counts rounded down to milliseconds, and so is a distance that fits. -/
theorem count_laws (t other : Timestamp) (m n : Int) :
    (0 ≤ (t.add m).nanosecond ∧ (t.add m).nanosecond < 1000000000) ∧
      (t.add m).nanos = t.nanos + m * 1000000 ∧
      (t.add m).add n = t.add (m + n) ∧
      (t.lt other = true ↔ t.nanos < other.nanos) ∧
      (t.millisecondLess other = true ↔ t.nanos / 1000000 < other.nanos / 1000000) ∧
      (t.millisecondEqual other = true ↔ t.nanos / 1000000 = other.nanos / 1000000) ∧
      (t.DistanceFits other → t.distanceMillisecond other =
        ((t.nanos / 1000000 - other.nanos / 1000000).natAbs : Int)) := by
  refine ⟨⟨(t.add m).nanosecond_nonneg, (t.add m).nanosecond_lt⟩, nanos_add t m, add_add t m n,
    lt_iff t other, ?_, ?_, ?_⟩
  · rw [← millis_eq, ← millis_eq]
    exact millisecondLess_iff t other
  · rw [← millis_eq, ← millis_eq]
    exact millisecondEqual_iff t other
  · intro hfits
    rw [← millis_eq, ← millis_eq]
    exact distanceMillisecond_eq hfits

/-- A timestamp before the epoch and one behind it, half a second off a full one. -/
theorem count_laws_epoch :
    (zero.add (-1500)).distanceMillisecond (zero.add 2000) = 3500 := by
  have h := (count_laws (zero.add (-1500)) (zero.add 2000) 0 0).2.2.2.2.2.2 (by decide)
  exact h

/-- The largest count, added twice, is a second that `int64_t` holds, and yet its distance
from the epoch comes out negative. -/
theorem distanceMillisecond_wraps :
    ((zero.add (2 ^ 63 - 1)).add (2 ^ 63 - 1)).second < 2 ^ 63 ∧
      zero.distanceMillisecond ((zero.add (2 ^ 63 - 1)).add (2 ^ 63 - 1)) = -2 ∧
      (zero.nanos / 1000000 -
        ((zero.add (2 ^ 63 - 1)).add (2 ^ 63 - 1)).nanos / 1000000).natAbs = 2 ^ 64 - 2 := by
  decide

-- A negative count borrows from the seconds, before the epoch too.
example : (⟨-1, 500000000, by decide, by decide⟩ : Timestamp).add (-1700) =
    ⟨-3, 800000000, by decide, by decide⟩ := by decide

end Timestamp

end Brickred
